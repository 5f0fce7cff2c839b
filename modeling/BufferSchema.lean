import BufferSchema.Main
import BufferSchema.Token.Cursor
import BufferSchema.Proofs.Luau.RoundTrip
import BufferSchema.Proofs.Luau.FieldReads
import BufferSchema.Proofs.Luau.WellScoped
import BufferSchema.Proofs.Luau.Reordering
import BufferSchema.Proofs.Luau.Unplaced
import BufferSchema.Proofs.Lexeme.Scanner
import BufferSchema.Proofs.Cli.Runs
import BufferSchema.Proofs.Schema.Changes
import BufferSchema.Proofs.Schema.Evidence
import BufferSchema.Proofs.Schema.Visits
import BufferSchema.Proofs.Schema.Reanalysis
import BufferSchema.Proofs.Luau.Calls
import BufferSchema.Proofs.Luau.TypeNames
import BufferSchema.Proofs.Token.Cursor
import BufferSchema.Proofs.Token.Printed
import BufferSchema.Proofs.Schema.EmptyStructs
import BufferSchema.Proofs.Schema.CursorParser
import BufferSchema.Proofs.Guarded
import BufferSchema.Proofs.Diagnostic
import BufferSchema.Proofs.Luau.Assembly
import BufferSchema.Proofs.Luau.RecordLayout
import BufferSchema.Proofs.Luau.Header
import BufferSchema.Proofs.Cli.Verbosity
import BufferSchema.Proofs.Cli.Answers
