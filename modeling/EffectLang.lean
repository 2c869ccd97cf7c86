import EffectLang.Batch
import EffectLang.Blob.Codec
import EffectLang.Blob.Effect
import EffectLang.Blob.Stream
import EffectLang.CommandLine
import EffectLang.Compile
import EffectLang.Document.Basic
import EffectLang.Document.Block
import EffectLang.Document.Chunk
import EffectLang.Document.Pass
import EffectLang.Document.Property
import EffectLang.Effect.Basic
import EffectLang.Effect.Property
import EffectLang.Effect.Summary
import EffectLang.Error
import EffectLang.Files.Path
import EffectLang.Files.Plan
import EffectLang.Files.Tree
import EffectLang.Glsl.Constants
import EffectLang.Glsl.StageFile
import EffectLang.Glsl.Version
import EffectLang.Literal.Numeral
import EffectLang.Literal.Table
import EffectLang.Main
import EffectLang.Number.Binary
import EffectLang.Number.Shortest
import EffectLang.Proofs.Blob.Canonical
import EffectLang.Proofs.Blob.FullSink
import EffectLang.Proofs.Blob.Lengths
import EffectLang.Proofs.Blob.RoundTrip
import EffectLang.Proofs.Blob.Truncation
import EffectLang.Proofs.CommandLine
import EffectLang.Proofs.Compile.Delivery
import EffectLang.Proofs.Compile.Refusal
import EffectLang.Proofs.Document.Chunk
import EffectLang.Proofs.Document.Conditionals
import EffectLang.Proofs.Document.Crowding
import EffectLang.Proofs.Document.Directives
import EffectLang.Proofs.Document.Facing
import EffectLang.Proofs.Document.Pass
import EffectLang.Proofs.Document.Property
import EffectLang.Proofs.Document.Recovery
import EffectLang.Proofs.Document.Source
import EffectLang.Proofs.Document.Spelling
import EffectLang.Proofs.Effect.WellFormed
import EffectLang.Proofs.Files.Frame
import EffectLang.Proofs.Files.Writes
import EffectLang.Proofs.Glsl.Constants
import EffectLang.Proofs.Glsl.Resolution
import EffectLang.Proofs.Glsl.StageFiles
import EffectLang.Proofs.Glsl.Std140
import EffectLang.Proofs.Reading.Aftermath
import EffectLang.Proofs.Reading.Agreement
import EffectLang.Proofs.Reading.Calls
import EffectLang.Proofs.Reading.Composition
import EffectLang.Proofs.Reading.Course
import EffectLang.Proofs.Reading.Embedding
import EffectLang.Proofs.Reading.Ends
import EffectLang.Proofs.Reading.InBounds
import EffectLang.Proofs.Reading.LiteralCost
import EffectLang.Proofs.Reading.Literals
import EffectLang.Proofs.Reading.MatchingBrace
import EffectLang.Proofs.Reading.Moment
import EffectLang.Proofs.Reading.Origins
import EffectLang.Proofs.Reading.Step
import EffectLang.Proofs.Reading.Strays
import EffectLang.Proofs.Reading.Volume
import EffectLang.Proofs.Reading.WellFormed
import EffectLang.Proofs.Text.Bytes
import EffectLang.Proofs.Token.Boundary
import EffectLang.Proofs.Token.ByteAgreement
import EffectLang.Proofs.Token.ByteScanner
import EffectLang.Proofs.Token.ByteTokens
import EffectLang.Proofs.Token.Calls
import EffectLang.Proofs.Token.Embedding
import EffectLang.Proofs.Token.Lexeme
import EffectLang.Proofs.Token.Lines
import EffectLang.Proofs.Token.Located
import EffectLang.Proofs.Token.Matching
import EffectLang.Proofs.Token.Numbers
import EffectLang.Proofs.Token.Place
import EffectLang.Proofs.Token.SideBySide
import EffectLang.Proofs.Token.Stream
import EffectLang.Proofs.Token.Tiling
import EffectLang.Proofs.Token.Trivia
import EffectLang.Showcase.Fullscreen
import EffectLang.Text.Invisible
import EffectLang.Text.Lines
import EffectLang.Text.Quoted
import EffectLang.Text.Utf8
import EffectLang.Token.Basic
import EffectLang.Token.Cursor
import EffectLang.Token.Lexeme
import EffectLang.Token.Reader
import EffectLang.Proofs.Literal.Accumulation
import EffectLang.Literal.Arena
import EffectLang.Proofs.Literal.Arena
