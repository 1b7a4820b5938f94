import ChainScript.Json.Parser
import ChainScript.LogLevel
import ChainScript.Main
import ChainScript.Proofs.Chain.Exchanges
import ChainScript.Proofs.Dispatch.Queries
import ChainScript.Proofs.Dispatch.Search
import ChainScript.Proofs.Command.Course
import ChainScript.Proofs.Dispatch.Binding
import ChainScript.Proofs.Registry
import ChainScript.Proofs.Command.Actor
import ChainScript.Proofs.Script.Atomic
import ChainScript.Proofs.World.Built
import ChainScript.Proofs.Expr.Token
import ChainScript.Proofs.Expr.Application
import ChainScript.Proofs.Command.Assert
import ChainScript.Proofs.Dispatch.Accounting
import ChainScript.Proofs.Dispatch.DepthFirst
import ChainScript.Proofs.Dispatch.Locality
import ChainScript.Proofs.Command.Recursion
import ChainScript.Proofs.Contract.Addressable
import ChainScript.Proofs.Dispatch.Taking
import ChainScript.Proofs.Expr.Recursion
import ChainScript.Proofs.Contract.Index
import ChainScript.Proofs.Event.Grammar
import ChainScript.Proofs.Event.Nesting
import ChainScript.Proofs.Event.RoundTrip
import ChainScript.Proofs.World.Remembering
import ChainScript.Proofs.Expr.Mentions
import ChainScript.Proofs.Script.Composition
import ChainScript.Proofs.Script.Reading
import ChainScript.Proofs.Command.Finish
import ChainScript.Proofs.Script.Allowance
import ChainScript.Proofs.Script.Agreement
import ChainScript.Proofs.Command.Frame
import ChainScript.Proofs.Script.Persistence
import ChainScript.Proofs.Prompt.Output
import ChainScript.Proofs.Prompt.ContractLines
import ChainScript.Proofs.Dispatch.Settling
import ChainScript.Proofs.Expr.Settling
import ChainScript.Proofs.Expr.Arithmetic
import ChainScript.Proofs.Number.Grammar
import ChainScript.Proofs.Number.RoundTrip
import ChainScript.Proofs.Number.Significant
import ChainScript.Proofs.Expr.Words
import ChainScript.Proofs.World.DefaultActor
import ChainScript.Proofs.Dict.Entries
import ChainScript.Proofs.Address.Spelling
import ChainScript.Proofs.Value.Comparison
import ChainScript.Proofs.Value.Symmetry
import ChainScript.Proofs.Value.HandedBack
import ChainScript.Proofs.Expr.Literals
import ChainScript.Proofs.Expr.Fallback
import ChainScript.Proofs.Expr.Scale
import ChainScript.Proofs.Text.ByteOrder
import ChainScript.Proofs.Contract.History
import ChainScript.Proofs.Chain.Ledger
import ChainScript.Proofs.Dispatch.Layers
import ChainScript.Proofs.Number.Truncation
