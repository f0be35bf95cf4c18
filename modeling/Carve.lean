import Carve.Catalog
import Carve.Closure
import Carve.Closure.Json
import Carve.Command.Arguments
import Carve.Command.Basic
import Carve.Command.Run
import Carve.Command.Subject
import Carve.Command.Table
import Carve.Coordinate
import Carve.Declaration
import Carve.Declaration.Json
import Carve.Disk.Basic
import Carve.Disk.Change
import Carve.Disk.Scan
import Carve.Extract
import Carve.Fault
import Carve.Ignore.Glob
import Carve.Ignore.Rules
import Carve.Inclusion
import Carve.Index
import Carve.Indexing
import Carve.Java.Binding
import Carve.Java.Compile
import Carve.Java.Emit
import Carve.Java.Grammar.Basic
import Carve.Java.Grammar.Declarations
import Carve.Java.Grammar.Expressions
import Carve.Java.Grammar.Statements
import Carve.Java.Grammar.Types
import Carve.Java.Imports
import Carve.Java.Lang
import Carve.Java.Token
import Carve.Java.Tree
import Carve.Java.Unit
import Carve.Java.Walk
import Carve.Json.Basic
import Carve.Json.Printer
import Carve.Json.Reader
import Carve.Language
import Carve.Main
import Carve.Path
import Carve.Plan
import Carve.Policy
import Carve.Project
import Carve.QName
import Carve.Reference
import Carve.Refusal
import Carve.Report
import Carve.Settings
import Carve.Settings.Load
import Carve.Settings.Reader
import Carve.Site
import Carve.Span
import Carve.Table
import Carve.Testing.Draft
import Carve.Testing.Exchange
import Carve.Testing.Failure
import Carve.Testing.Generation
import Carve.Testing.Prompt
import Carve.Testing.Skeleton
import Carve.Testing.Write
import Carve.Text.Blank
import Carve.Text.Bytes
import Carve.Text.Letters
import Carve.Text.Runs
import Carve.Text.Split
import Carve.Text.Width
import Carve.Text.Words
import Carve.Toml.Basic
import Carve.Toml.Document
import Carve.Toml.Reader
import Carve.Toml.Scalar
import Carve.UseSite
import Carve.Workbench
import Carve.Workspace
import Carve.Workspace.Write
import Carve.Proofs.Index.Building
import Carve.Proofs.Index.Sources
import Carve.Proofs.KeepFirst
import Carve.Proofs.Table
import Carve.Proofs.Index.Lookup
import Carve.Proofs.Index.References
import Carve.Proofs.Index.Edges
import Carve.Proofs.Text.Slices
import Carve.Proofs.Path
import Carve.Proofs.Plan
import Carve.Proofs.Extract
import Carve.Proofs.Closure.Accounts
import Carve.Proofs.Closure.Run
import Carve.Proofs.Closure.Companions
import Carve.Proofs.Closure.Diagnostics
import Carve.Proofs.Closure.Grades
import Carve.Proofs.Closure.Distance
import Carve.Proofs.Closure.Rounds
import Carve.Proofs.Closure.Turns
import Carve.Proofs.Closure.Limits
import Carve.Proofs.Closure.Libraries
import Carve.Proofs.Closure.Reordering
import Carve.Proofs.Closure.Constructors
import Carve.Proofs.Java.Grammar.Basic
import Carve.Proofs.Java.Grammar.Types
import Carve.Proofs.Text.Marks
import Carve.Proofs.Java.Scan
import Carve.Proofs.Java.Grammar.Expressions
import Carve.Proofs.Java.Grammar.Declarations
import Carve.Proofs.Java.Reading
import Carve.Proofs.Java.Scopes
import Carve.Proofs.Java.Enclosure
import Carve.Proofs.Java.Coverage
import Carve.Proofs.Java.Layout.Basic
import Carve.Proofs.Java.Layout.Types
import Carve.Proofs.Java.Layout.Expressions
import Carve.Proofs.Java.Layout.Statements
import Carve.Proofs.Java.Layout.Declarations
import Carve.Proofs.Java.Layout.Tree
import Carve.Proofs.Java.Naming
import Carve.Proofs.Java.Places
import Carve.Proofs.Java.Placing
import Carve.Proofs.Java.Writing
import Carve.Proofs.Java.Survival
import Carve.Proofs.Java.Extraction
import Carve.Proofs.Java.Targets
import Carve.Proofs.Java.Attribution
import Carve.Proofs.Java.Origins
import Carve.Proofs.Java.Innermost
import Carve.Proofs.Java.CtorCalls
import Carve.Proofs.Java.Collecting
import Carve.Proofs.Index.Integrity
import Carve.Proofs.Java.Agreement
import Carve.Proofs.Index.Order
import Carve.Proofs.Java.Collisions
import Carve.Proofs.Java.Tops
import Carve.Proofs.Java.Planning
import Carve.Proofs.Java.Written
import Carve.Proofs.Java.Merging
import Carve.Proofs.Java.Recording
import Carve.Proofs.Java.Bodies
import Carve.Proofs.Java.Members
import Carve.Proofs.Java.Lookup
import Carve.Proofs.Java.BlankFinals
import Carve.Proofs.Java.Tour
import Carve.Proofs.Java.Inheritance
import Carve.Proofs.Text.Characters
import Carve.Proofs.Text.Replacing
import Carve.Proofs.Testing.Draft
import Carve.Proofs.Testing.Skeleton
import Carve.Proofs.Disk.Ways
import Carve.Proofs.Disk.Change
import Carve.Proofs.Workspace.Around
import Carve.Proofs.Workspace.Staging
import Carve.Proofs.Workspace.Installing
import Carve.Proofs.Workspace.Writing
import Carve.Proofs.Java.Addresses
import Carve.Proofs.Java.Delivery
import Carve.Proofs.Java.Outermost
import Carve.Proofs.Plan.Standing
import Carve.Proofs.Java.Selecting
import Carve.Proofs.Java.HeaderParts
import Carve.Proofs.Java.Headers
import Carve.Proofs.Java.Keeping
import Carve.Proofs.Java.Nested
import Carve.Proofs.Java.Variables
import Carve.Proofs.Java.Hiding
import Carve.Proofs.Java.TypeUses
import Carve.Proofs.Java.TypeScopes
import Carve.Proofs.Catalog
import Carve.Proofs.Testing.ClassHeader
import Carve.Proofs.Testing.Place
import Carve.Proofs.Testing.Blocks
import Carve.Proofs.Java.RawNames
import Carve.Proofs.Testing.Streams
import Carve.Proofs.Testing.Prompts
import Carve.Proofs.Java.Ending
import Carve.Proofs.Coordinate
import Carve.Proofs.Site
import Carve.Proofs.Java.Messages
import Carve.Proofs.Java.Frames
import Carve.Proofs.Java.Geometry
