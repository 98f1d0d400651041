import Corrlog.Core.Writers
import Corrlog.Adapters.ClaudeCode
import Corrlog.Adapters.ClaudeHooks
import Corrlog.Adapters.CrewAI
import Corrlog.Adapters.HumanFlag
import Corrlog.Adapters.Inspect
import Corrlog.Adapters.InspectReceipts
import Corrlog.Adapters.ProofAgent
import Corrlog.Adapters.Sessions
import Corrlog.Adapters.Wrappers
import Corrlog.Core.Seeds
import Corrlog.Core.Contents
import Corrlog.Core.Checkpoint
import Corrlog.Core.Attribution
import Corrlog.Core.Lifecycle
import Corrlog.Core.Replay
import Corrlog.Core.Provenance
import Corrlog.Core.Render
import Corrlog.Core.Family
import Corrlog.Rfc8785.Layout
import Corrlog.Standalone.Agreement
import Corrlog.Standalone.Main
import Corrlog.Standalone.ReadJson
import Corrlog.Standalone.Texts
import Corrlog.Validation.Candidate
import Corrlog.Validation.CommandLines
import Corrlog.Validation.Independent
import Corrlog.Validation.Renderer
import Corrlog.Adapters.Audit
