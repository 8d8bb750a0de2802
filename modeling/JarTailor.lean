import JarTailor.Bytecode.Body
import JarTailor.Bytecode.Instruction
import JarTailor.Bytecode.Opcode
import JarTailor.Bytes
import JarTailor.ClassFile.Access
import JarTailor.ClassFile.Attribute
import JarTailor.ClassFile.Basic
import JarTailor.ClassFile.Code
import JarTailor.ClassFile.Constant
import JarTailor.ClassFile.InnerClasses
import JarTailor.ClassFile.Member
import JarTailor.ClassFile.Pool
import JarTailor.Config.Basic
import JarTailor.Config.BuiltIn
import JarTailor.Config.Toml
import JarTailor.Config.Validate
import JarTailor.Descriptor
import JarTailor.Edit.Promotions
import JarTailor.Edit.Redirect
import JarTailor.Edit.Renaming
import JarTailor.Edit.Replace
import JarTailor.Edit.Stub
import JarTailor.Failure
import JarTailor.Glob
import JarTailor.Graph
import JarTailor.Hierarchy
import JarTailor.Jar.Analysis
import JarTailor.Jar.Archive
import JarTailor.Jar.Dependencies
import JarTailor.Jar.Generated
import JarTailor.Jar.Scan
import JarTailor.Json
import JarTailor.Log
import JarTailor.Main
import JarTailor.Name
import JarTailor.Path
import JarTailor.Program.CommandLine
import JarTailor.Program.Disk
import JarTailor.Program.LogFilter
import JarTailor.Program.Session
import JarTailor.References
import JarTailor.Regex.Basic
import JarTailor.Regex.CharSet
import JarTailor.Regex.Fault
import JarTailor.Regex.Meaning
import JarTailor.Regex.Pattern
import JarTailor.Regex.Property
import JarTailor.Regex.Reader
import JarTailor.Regex.Reader.Basic
import JarTailor.Regex.Reader.Class
import JarTailor.Regex.Reader.Escape
import JarTailor.Regex.Reader.Group
import JarTailor.Regex.Reader.Repetition
import JarTailor.Regex.Size
import JarTailor.Signature
import JarTailor.Text.Affix
import JarTailor.Text.CaseFold
import JarTailor.Text.Category
import JarTailor.Text.Hex
import JarTailor.Text.Split
import JarTailor.Text.Utf8
import JarTailor.Toml.Bare
import JarTailor.Toml.Document
import JarTailor.Toml.Text
import JarTailor.Toml.Token
import JarTailor.Toml.Value
import JarTailor.Total
import JarTailor.TypeUse.Annotations
import JarTailor.TypeUse.Basic
import JarTailor.TypeUse.Role
import JarTailor.Zip.Checksum
import JarTailor.Zip.Container
import JarTailor.Zip.Inflate
import JarTailor.Proofs.ClassFile.Codec
import JarTailor.Proofs.ClassFile.Layout
import JarTailor.Proofs.ClassFile.Lossless
import JarTailor.Proofs.ClassFile.Overlong
import JarTailor.Proofs.Success
import JarTailor.Proofs.Maps
import JarTailor.Proofs.Analysis.Hierarchy
import JarTailor.Proofs.Analysis.Known
import JarTailor.Proofs.Analysis.Kept
import JarTailor.Proofs.ClassFile.Contents
import JarTailor.Proofs.ClassFile.Growth
import JarTailor.Proofs.ClassFile.Kinds
import JarTailor.Proofs.Edit.Redirect
import JarTailor.Proofs.Edit.Promotions
import JarTailor.Proofs.Edit.Renaming
import JarTailor.Proofs.Edit.Replace
import JarTailor.Proofs.Edit.Writable
import JarTailor.Proofs.Descriptor
import JarTailor.Proofs.Edit.Names
import JarTailor.Proofs.Signature
import JarTailor.Proofs.TypeUse.Role
import JarTailor.Proofs.References
import JarTailor.Proofs.TypeUse.Walk
import JarTailor.Proofs.TypeUse.Uses
import JarTailor.Proofs.Jar.Prepared
import JarTailor.Proofs.Edit.Renamed
import JarTailor.Proofs.Edit.Collected
import JarTailor.Proofs.Edit.Complete
import JarTailor.Proofs.Edit.Confined
import JarTailor.Proofs.Edit.ByRole
import JarTailor.Proofs.Receiver
import JarTailor.Proofs.Jar.Named
import JarTailor.Proofs.Jar.Written
import JarTailor.Proofs.Jar.Linked
import JarTailor.Proofs.Jar.Scanned
import JarTailor.Proofs.Jar.Monotone
import JarTailor.Proofs.Jar.Readable
import JarTailor.Proofs.ClassFile.Room
import JarTailor.Proofs.Edit.Stub
import JarTailor.Proofs.Program.Create
import JarTailor.Proofs.Jar.Omitted
import JarTailor.Proofs.ClassFile.FlagWords
import JarTailor.Proofs.Config.ReadBack
import JarTailor.Proofs.Edit.FlagsOnly
import JarTailor.Proofs.Jar.Reported
import JarTailor.Proofs.Jar.Packed
import JarTailor.Proofs.Bytecode.Made
import JarTailor.Proofs.Bytecode.Bodies
import JarTailor.Proofs.Edit.Calls
import JarTailor.Proofs.Edit.CodeLayout
import JarTailor.Proofs.Edit.RedirectRules
import JarTailor.Proofs.Signature.Grammar
import JarTailor.Proofs.Signature.Recognized
import JarTailor.Proofs.Signature.Substitution
import JarTailor.Proofs.Signature.Octets
import JarTailor.Proofs.Edit.Bodies
import JarTailor.Proofs.Edit.Selected
import JarTailor.Proofs.Edit.Stubbed
import JarTailor.Proofs.TypeUse.AnnotationTrees
import JarTailor.Proofs.Bytecode.Listing
import JarTailor.Proofs.Jar.Unchanged
import JarTailor.Proofs.Edit.Idempotent
import JarTailor.Proofs.Config.Renames
import JarTailor.Proofs.Edit.Nested
import JarTailor.Proofs.Analysis.Derived
import JarTailor.Proofs.Analysis.Foreseen
import JarTailor.Proofs.Jar.FirstWins
import JarTailor.Proofs.Jar.Referrers
import JarTailor.Proofs.Edit.MadePublic
import JarTailor.Proofs.Glob.Spelled
import JarTailor.Proofs.Regex.Matches
import JarTailor.Proofs.Regex.Reading
import JarTailor.Proofs.Glob.Expression
import JarTailor.Proofs.Glob.Doubled
import JarTailor.Proofs.Descriptor.Grammar
import JarTailor.Proofs.Signature.Descriptors
import JarTailor.Proofs.Signature.Standard
import JarTailor.Proofs.ClassFile.Extent
import JarTailor.Proofs.ClassFile.Interned
import JarTailor.Proofs.Jar.Unused
import JarTailor.Proofs.Text.ByteOrder
import JarTailor.Proofs.Edit.StubbedFiles
import JarTailor.Proofs.Bytecode.Slots
