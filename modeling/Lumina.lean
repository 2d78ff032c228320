import Lumina.Api.RateLimit
import Lumina.Api.Lifecycle
import Lumina.Chat.Accounting
import Lumina.Chat.Rescue
import Lumina.Chat.Valve
import Lumina.Common.Pages
import Lumina.Conversations.Composer
import Lumina.Conversations.Summary
import Lumina.Conversations.TurnBudget
import Lumina.Core.UnitOfWork
import Lumina.Core.Isolation
import Lumina.Etl.Artifacts
import Lumina.Etl.ChunkPages
import Lumina.Etl.HardSplit
import Lumina.Etl.Cleaning
import Lumina.Etl.Pdf
import Lumina.Etl.CodeBlocks
import Lumina.Etl.TableGrid
import Lumina.Etl.Isolated
import Lumina.Etl.PlainText
import Lumina.Etl.Sandbox
import Lumina.Etl.Xlsx
import Lumina.Evaluation.Ingest
import Lumina.Evaluation.Reports
import Lumina.Frontend.BufferOwnership
import Lumina.Frontend.Citations
import Lumina.Frontend.DocumentList
import Lumina.Frontend.Polling
import Lumina.Frontend.FinishedAnswer
import Lumina.Frontend.SingleFlight
import Lumina.Gateway.Embeddings
import Lumina.Gateway.Shape
import Lumina.Gateway.StreamParser
import Lumina.Identity.Logout
import Lumina.Identity.Revocation
import Lumina.Identity.Throttling
import Lumina.Knowledge.Attempts
import Lumina.Knowledge.Cleanup
import Lumina.Knowledge.Completeness
import Lumina.Knowledge.EmbedLoop
import Lumina.Knowledge.Endings
import Lumina.Knowledge.MediaTypes
import Lumina.Knowledge.ParamRange
import Lumina.Knowledge.Redelivery
import Lumina.Knowledge.Retention
import Lumina.Knowledge.StaleEmbedding
import Lumina.Knowledge.Switch
import Lumina.Knowledge.Uploads
import Lumina.Library.Ranking
import Lumina.Platform.Analytics
import Lumina.Platform.Credentials
import Lumina.Platform.Fairness
import Lumina.Platform.Partitions
import Lumina.Platform.Pricing
import Lumina.Platform.ReadyNotifications
import Lumina.Platform.TenantSettings
import Lumina.Prompts.ContextBlock
import Lumina.Prompts.Versions
import Lumina.Quota.Alerts
import Lumina.Quota.Periods
import Lumina.Quota.Reconciliation
import Lumina.Quota.Settlement
import Lumina.Rag.Citation
import Lumina.Rag.Degradation
import Lumina.Rag.Fusion
import Lumina.Rag.Goldenset
import Lumina.Rag.Keyword
import Lumina.Rag.Metrics
import Lumina.Rag.Selection
import Lumina.Sse.Resume
import Lumina.Sse.Wire
