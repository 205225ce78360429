import StreamingJson.Chunking
import StreamingJson.Parse
import StreamingJson.Value.Access
import StreamingJson.Value.Equality
import StreamingJson.Value.Tokens
import StreamingJson.Value.Writable
import StreamingJson.ValueStream
import StreamingJson.Proofs.Demand
import StreamingJson.Proofs.Lexer.Bytes
import StreamingJson.Proofs.Lexer.Chunks
import StreamingJson.Proofs.Pipeline.Drain
import StreamingJson.Proofs.Pipeline.Conformance
import StreamingJson.Proofs.Pipeline.Calls
import StreamingJson.Proofs.Pipeline.Schedule
import StreamingJson.Proofs.Pipeline.Asking
import StreamingJson.Proofs.Outcome
import StreamingJson.Proofs.Unplaced
import StreamingJson.Proofs.Cuts
import StreamingJson.Proofs.Grammar.Scanning
import StreamingJson.Proofs.Grammar.Text
import StreamingJson.Proofs.Grammar.Numbers
import StreamingJson.Proofs.Grammar.Strings
import StreamingJson.Proofs.Builder.Drafts
import StreamingJson.Proofs.Grammar.Between
import StreamingJson.Proofs.Grammar.Parsing
import StreamingJson.Proofs.Builder.Lockstep
import StreamingJson.Proofs.Pipeline.Runs
import StreamingJson.Proofs.Pipeline.Serving
import StreamingJson.Proofs.Pipeline.Consumer
import StreamingJson.Proofs.Pipeline.Supplier
import StreamingJson.Proofs.Pipeline.Invariance
import StreamingJson.Proofs.Pipeline.Agreement
import StreamingJson.Proofs.Builder.Streaming
import StreamingJson.Proofs.Streaming
import StreamingJson.Proofs.Pipeline.Rationed
import StreamingJson.Proofs.Builder.Trees
import StreamingJson.Proofs.Pipeline.Waiting
import StreamingJson.Proofs.Stream.Results
import StreamingJson.Proofs.Stream.Discipline
import StreamingJson.Proofs.Builder.Tidy
import StreamingJson.Proofs.Concatenation
import StreamingJson.Proofs.Truncation
import StreamingJson.Proofs.Lexer.Places
import StreamingJson.Proofs.Lexer.Calls
import StreamingJson.Proofs.Lexer.Renewal
import StreamingJson.Proofs.ErrorPlaces
import StreamingJson.Proofs.Lexer.Seeking
import StreamingJson.Proofs.NumberTokens
import StreamingJson.Proofs.Grammar.Spelling
import StreamingJson.Proofs.StringTokens
import StreamingJson.Proofs.Pipeline.Violations
import StreamingJson.Proofs.Protocol
import StreamingJson.Proofs.Builder.Names
import StreamingJson.Proofs.Builder.Rejecting
import StreamingJson.Proofs.Duplicates
import StreamingJson.Proofs.Delivery
import StreamingJson.Proofs.Builder.Coherence
import StreamingJson.Proofs.Lexer.History
import StreamingJson.Proofs.Lexer.Steps
import StreamingJson.Proofs.Lexer.Partial
import StreamingJson.Proofs.Lexer.Soundness
import StreamingJson.Proofs.Lexer.Faults
import StreamingJson.Proofs.Chunking
import StreamingJson.Proofs.Lexer.Limits
import StreamingJson.Proofs.Builder.Contents
import StreamingJson.Proofs.Equality
import StreamingJson.Proofs.DepthLimit
import StreamingJson.Proofs.Termination
import StreamingJson.Proofs.Machine.Steps
import StreamingJson.Proofs.Machine.Simulation
import StreamingJson.Proofs.Machine.Calls
import StreamingJson.Proofs.Machine.Renewal
import StreamingJson.Proofs.Machine.History
import StreamingJson.Proofs.Machine.Consistency
