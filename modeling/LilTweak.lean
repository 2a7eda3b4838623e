import LilTweak.Core.Dumps
import LilTweak.Worker.Dispatch
import LilTweak.Worker.Uploads
import LilTweak.Worker.EvidenceMirror
import LilTweak.Signing.Agreement
import LilTweak.Worlds.Judging
import LilTweak.Worlds.Fencing
import LilTweak.Worlds.Retry
import LilTweak.Store.Lease
import LilTweak.Store.Postgres
import LilTweak.Signing.Replay
import LilTweak.Evidence.Matching
import LilTweak.Evidence.Printing
import LilTweak.Evidence.Reproduction
import LilTweak.Evidence.Legible
import LilTweak.Orchestrator.Cancellation
import LilTweak.Orchestrator.Approvals
import LilTweak.Orchestrator.Settlement
import LilTweak.Recovery.Authority
import LilTweak.Agent.Observations
import LilTweak.Lib.Sharing
import LilTweak.Lib.JsValue
import LilTweak.Lib.Base64
import LilTweak.Workspace.Projects
import LilTweak.Workspace.Calls
import LilTweak.Workspace.System
import LilTweak.Workspace.Ownership
import LilTweak.Workspace.Safety
import LilTweak.Workspace.Methods
import LilTweak.Workspace.Histories
import LilTweak.Lib.FairShare
import LilTweak.Agent.ToolOutput
import LilTweak.Agent.Cuts
import LilTweak.Lib.JsonGrammar
import LilTweak.Agent.Preview
import LilTweak.Agent.Admission
import LilTweak.Agent.CodeEngineer
import LilTweak.Agent.ToolBudget
import LilTweak.Lib.Trim
import LilTweak.Worker.CoreProtocol
import LilTweak.Worker.Remirror
import LilTweak.Sources.Paths
import LilTweak.Recovery.Fingerprints
import LilTweak.Recovery.Outcomes
import LilTweak.Lib.PyJson
import LilTweak.Lib.PyJsonText
import LilTweak.Recovery.Stores
import LilTweak.Lib.PyJsonSort
import LilTweak.Lib.Regex
import LilTweak.SkillForge.Text
import LilTweak.SkillForge.Package
import LilTweak.SkillForge.Compiler
import LilTweak.Lib.Unpack
import LilTweak.SkillForge.Reading
import LilTweak.SkillForge.Extraction
import LilTweak.SkillForge.Recompiling
import LilTweak.SkillForge.Evaluation
import LilTweak.Lib.Framing
import LilTweak.Evidence.SourceStream
import LilTweak.Github.Manifest
import LilTweak.Sources.Archive
import LilTweak.Sources.Inspection
import LilTweak.Sources.Extracting
import LilTweak.Evidence.CommandLog
import LilTweak.Agent.EditJournal
import LilTweak.Agent.Patching
import LilTweak.Agent.ToolSchemas
import LilTweak.Sandbox.Podman
import LilTweak.Sandbox.Lifecycle
import LilTweak.SkillForge.Grading
import LilTweak.SkillForge.HeldOut
import LilTweak.SkillForge.Library
import LilTweak.Lib.JsonHooks
import LilTweak.Install.Urlsplit
import LilTweak.Install.Snapshot
import LilTweak.Install.Environment
import LilTweak.Install.Startup
import LilTweak.SkillForge.Mini
import LilTweak.SkillForge.Sessions
import LilTweak.SkillForge.Custody
import LilTweak.SkillForge.Transactions
import LilTweak.SkillForge.Approved
