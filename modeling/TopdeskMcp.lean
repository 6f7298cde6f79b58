import TopdeskMcp.Lib.Trace
import TopdeskMcp.Lib.Utf8
import TopdeskMcp.Lib.HashMap
import TopdeskMcp.Lib.Hex
import TopdeskMcp.Lib.Base64
import TopdeskMcp.Lib.Json
import TopdeskMcp.Lib.Memo
import TopdeskMcp.Lib.Shell
import TopdeskMcp.Lib.Crash
import TopdeskMcp.Core.ConfigSchema
import TopdeskMcp.Core.CircuitBreaker
import TopdeskMcp.Core.CredentialStorage
import TopdeskMcp.Theorems.CredentialFile
import TopdeskMcp.Theorems.Credentials
import TopdeskMcp.Theorems.EncryptedFile
import TopdeskMcp.Theorems.Admission
import TopdeskMcp.Theorems.Breaker
import TopdeskMcp.Theorems.BreakerState
import TopdeskMcp.Data.Store
import TopdeskMcp.Theorems.Store
import TopdeskMcp.Bin.PopulateEmbeddings
import TopdeskMcp.Theorems.Populate
import TopdeskMcp.Cli.SetupWizard
import TopdeskMcp.Theorems.Setup
import TopdeskMcp.Lib.Percent
import TopdeskMcp.Lib.Url
import TopdeskMcp.Lib.Form
import TopdeskMcp.Core.Errors
import TopdeskMcp.Core.ConfigManager
import TopdeskMcp.Main
import TopdeskMcp.Theorems.Persistence
import TopdeskMcp.Core.ApiUrlBuilder
import TopdeskMcp.Core.RateLimiter
import TopdeskMcp.Auth.AuthManager
import TopdeskMcp.Services.ApiClient
import TopdeskMcp.Theorems.Retry
import TopdeskMcp.Theorems.Paths
import TopdeskMcp.Theorems.Templates
import TopdeskMcp.Theorems.Arguments
import TopdeskMcp.Theorems.Headers
import TopdeskMcp.Theorems.Authentication
import TopdeskMcp.Theorems.Resolution
import TopdeskMcp.Tools.CallTool
import TopdeskMcp.Validation.Validator
import TopdeskMcp.Theorems.Limiter
import TopdeskMcp.Theorems.Limits
import TopdeskMcp.Core.McpServer
import TopdeskMcp.Theorems.Isolation
import TopdeskMcp.Theorems.Stages
import TopdeskMcp.Theorems.Identity
import TopdeskMcp.Cli.TestConnection
import TopdeskMcp.Cli.Call
import TopdeskMcp.Theorems.Agreement
import TopdeskMcp.Core.ShutdownHandler
import TopdeskMcp.Theorems.Shutdown
import TopdeskMcp.Core.ComponentRegistry
import TopdeskMcp.Core.HealthCheckManager
import TopdeskMcp.Core.Sanitizer
import TopdeskMcp.Lib.JsonPath
import TopdeskMcp.Lib.Reference
import TopdeskMcp.Theorems.Health
import TopdeskMcp.Theorems.Joining
import TopdeskMcp.Theorems.Redaction
import TopdeskMcp.Theorems.Verdicts
import TopdeskMcp.Theorems.Cascade
import TopdeskMcp.Lib.Table
import TopdeskMcp.Theorems.Indexing
import TopdeskMcp.Tools.SearchTool
import TopdeskMcp.Theorems.Completeness
import TopdeskMcp.Lib.Once
import TopdeskMcp.Data.ConnectionCache
import TopdeskMcp.Theorems.Connections
import TopdeskMcp.Data.StorePath
import TopdeskMcp.Theorems.Leftovers
import TopdeskMcp.Theorems.HexCodec
import TopdeskMcp.Lib.Recency
import TopdeskMcp.Core.CacheManager
import TopdeskMcp.Theorems.QueryCache
import TopdeskMcp.Lib.SocketAddr
import TopdeskMcp.Http.Server
import TopdeskMcp.Theorems.Listening
import TopdeskMcp.Lib.RustTokens
import TopdeskMcp.Scripts.ProductionCoverage
import TopdeskMcp.Theorems.Scanner
import TopdeskMcp.Theorems.ClosingBrace
import TopdeskMcp.Lib.Lines
import TopdeskMcp.Scripts.CoverageReport
import TopdeskMcp.Theorems.CoverageGate
import TopdeskMcp.Http.Metrics
import TopdeskMcp.Http.Router
import TopdeskMcp.Theorems.Gate
import TopdeskMcp.Theorems.Probes
import TopdeskMcp.Theorems.Release
import TopdeskMcp.Data.Catalog
import TopdeskMcp.Theorems.OneCatalog
import TopdeskMcp.Cli.Config
import TopdeskMcp.Theorems.Frozen
import TopdeskMcp.Lib.Bisect
import TopdeskMcp.Lib.Counter
import TopdeskMcp.Scripts.SamplyToText
import TopdeskMcp.Theorems.FoldedStacks
import TopdeskMcp.Prompts.Router
import TopdeskMcp.Cli.Versions
import TopdeskMcp.Theorems.Advice
